/-!
# Faults of a configuration

What can be wrong with a configuration that could be read, and how it is reported.
-/

namespace LeasePool

/-- A fault of a configuration. -/
inductive ConfigError where
  | emptyPoolName
  | durationNotPositive
  | negativeReplicas
  | unknownStore (text : String)
  | unknownIdentity (text : String)
  | emptySpan
  | malformedSpan (text : String)
  | excessiveSpan (text : String)
  | zeroSpan (text : String)
  | malformedDelay (text : String)
  deriving DecidableEq, Repr

/-- The report of a fault. -/
def ConfigError.message : ConfigError → String
  | emptyPoolName => "pool name must not be empty"
  | durationNotPositive => "lease durations must be positive"
  | negativeReplicas => "replicas must not be negative"
  | unknownStore text => "unknown store '" ++ text ++ "'. valid options: kubernetes, memory"
  | unknownIdentity text =>
    "unknown identity mode '" ++ text ++ "'. valid options: cluster, local"
  | emptySpan => "empty duration string"
  | malformedSpan text => "invalid duration: '" ++ text ++ "'"
  | excessiveSpan text => "duration overflow: '" ++ text ++ "'"
  | zeroSpan text => "duration must be positive: '" ++ text ++ "'"
  | malformedDelay text =>
    "invalid initial delay '" ++ text ++ "'. expected 'random' or a number of seconds"

end LeasePool
