import Quicp.Wire.Repair

/-!
# The recovery limits of an endpoint

The configuration is checked once, when an endpoint starts. Everything that later relies on
a limit relies on this check.
-/

namespace Quicp

inductive RecoveryMode
  | adaptive
  | reliableOnly
  deriving DecidableEq, Repr

structure RecoveryConfig where
  mode : RecoveryMode
  requireAdaptive : Bool
  maxRepairSpan : ℕ
  decoderWindow : ℕ
  maxAckRanges : ℕ
  replayBufferBytes : ℕ
  reassemblyBufferBytes : ℕ
  preOpenSymbols : ℕ
  workBudget : ℕ
  deriving DecidableEq, Repr

/-- The errors of `ConfigError` that the recovery limits can have. -/
inductive ConfigError
  | invalidRecoveryPolicy
  | invalidRecoveryLimit (name : String) (value minimum maximum : ℕ)
  deriving DecidableEq, Repr

def maxDecoderWindow : ℕ := 4096

def maxFlowBufferBytes : ℕ := 16 * 1024 * 1024

def validateRecoveryLimit (name : String) (value minimum maximum : ℕ) : Except ConfigError Unit :=
  if ¬(minimum ≤ value ∧ value ≤ maximum) then .error (.invalidRecoveryLimit name value minimum maximum) else .ok ()

def refusePolicyWhen (condition : Prop) [Decidable condition] : Except ConfigError Unit :=
  if condition then .error .invalidRecoveryPolicy else .ok ()

def RecoveryConfig.validate (config : RecoveryConfig) (flowBufferBytes : ℕ) : Except ConfigError Unit := do
  refusePolicyWhen (config.requireAdaptive ∧ config.mode ≠ .adaptive)
  validateRecoveryLimit "max_repair_span" config.maxRepairSpan 1 Quicp.maxRepairSpan
  validateRecoveryLimit "decoder_window" config.decoderWindow 512 maxDecoderWindow
  refusePolicyWhen (config.decoderWindow < config.maxRepairSpan)
  validateRecoveryLimit "max_ack_ranges" config.maxAckRanges 1 32
  validateRecoveryLimit "replay_buffer_bytes" config.replayBufferBytes flowBufferBytes maxFlowBufferBytes
  validateRecoveryLimit "reassembly_buffer_bytes" config.reassemblyBufferBytes flowBufferBytes maxFlowBufferBytes
  validateRecoveryLimit "pre_open_symbols" config.preOpenSymbols 0 256
  validateRecoveryLimit "work_budget" config.workBudget 1 4096

theorem validateRecoveryLimit_eq_ok {name : String} {value minimum maximum : ℕ} :
    validateRecoveryLimit name value minimum maximum = .ok () ↔ minimum ≤ value ∧ value ≤ maximum := by
  unfold validateRecoveryLimit
  split_ifs with h
  · exact iff_of_true rfl h
  · exact iff_of_false (by simp) h

private theorem bind_eq_ok {first : Except ConfigError Unit} {rest : Unit → Except ConfigError Unit} :
    (first >>= rest) = .ok () ↔ first = .ok () ∧ rest () = .ok () := by
  cases first <;> simp [bind, Except.bind]

theorem RecoveryConfig.decoderWindow_of_validate {config : RecoveryConfig} {flowBufferBytes : ℕ}
    (h : config.validate flowBufferBytes = .ok ()) : 512 ≤ config.decoderWindow := by
  unfold RecoveryConfig.validate at h
  rw [bind_eq_ok, bind_eq_ok, bind_eq_ok] at h
  exact (validateRecoveryLimit_eq_ok.mp h.2.2.1).1

end Quicp
