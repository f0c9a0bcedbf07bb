import Reprise.Expr.Operator

/-!
The causes for which a query, a store, an oracle or a session can fail, and what is reported of each:
a message, a code and a line of help.
-/
set_option autoImplicit false

namespace Reprise

structure Diagnosis where
  message : String
  code : String
  help : String
deriving DecidableEq

inductive OperandKind where
  | integer
  | boolean
  /-- Both operands of one kind. -/
  | matching
deriving DecidableEq

def OperandKind.text : OperandKind → String
  | .integer => "integer"
  | .boolean => "boolean"
  | .matching => "matching"

inductive ExprFault where
  | unsupportedOperator (op : Operator)
  | arityMismatch (op : Operator) (expected actual : Nat)
  | typeMismatch (op : Operator) (expected : OperandKind)
  | unsupportedConstant (text : String)
  | divisionByZero (op : Operator)
  | notBoolean (found : String)
deriving DecidableEq

def ExprFault.diagnosis : ExprFault → Diagnosis
  | .unsupportedOperator op => {
      message := "operator " ++ op.symbol ++ " is not supported by the evaluator"
      code := "grulia::expr::unsupported_operator"
      help := "This visitor cannot interpret the operator. Rewrite the constraint "
        ++ "without it, or route the query straight to the oracle." }
  | .arityMismatch op expected actual => {
      message := "operator " ++ op.symbol ++ " expects " ++ toString expected
        ++ " operand(s), got " ++ toString actual
      code := "grulia::expr::arity_mismatch"
      help := "Unary operators take one operand and binary operators exactly two." }
  | .typeMismatch op expected => {
      message := "operator " ++ op.symbol ++ " expects " ++ expected.text ++ " operands"
      code := "grulia::expr::type_mismatch"
      help := "Relational and arithmetic operators take integer operands; "
        ++ "logical connectives take boolean operands." }
  | .unsupportedConstant text => {
      message := "constant " ++ text ++ " cannot be evaluated by the evaluator"
      code := "grulia::expr::unsupported_constant"
      help := "Only integer and bit-vector constants take part in exact evaluation." }
  | .divisionByZero op => {
      message := "division by zero in operator " ++ op.symbol
      code := "grulia::expr::division_by_zero"
      help := "The assignment drives a divisor to zero; it cannot satisfy the constraint." }
  | .notBoolean found => {
      message := "expression evaluated to " ++ found ++ ", expected a boolean"
      code := "grulia::expr::not_boolean"
      help := "The root of a constraint must be a relational or logical operation." }

inductive StoreFault where
  | io (reason : String)
  | transaction (reason : String)
  | serialization (reason : String)
deriving DecidableEq

def StoreFault.diagnosis : StoreFault → Diagnosis
  | .io reason => {
      message := "I/O error: " ++ reason
      code := "grulia::store::io"
      help := "A filesystem operation failed. Check that the data directory exists, "
        ++ "has correct permissions, and that the disk is not full." }
  | .transaction reason => {
      message := "redb transaction error: " ++ reason
      code := "grulia::store::redb"
      help := "The embedded database encountered a transaction error. "
        ++ "This may indicate corruption. Try running with a fresh data directory." }
  | .serialization reason => {
      message := "serialization error: " ++ reason
      code := "grulia::store::serde"
      help := "Failed to encode or decode a cache entry. "
        ++ "This usually means the entry format changed between versions; "
        ++ "entries that fail to decode are skipped during warm load." }

inductive OracleFault where
  | failed (reason : String)
  | malformed (reason : String)
  | searchSpaceTooLarge (assignments limit : Nat)
  | expr (fault : ExprFault)
deriving DecidableEq

def OracleFault.diagnosis : OracleFault → Diagnosis
  | .failed reason => {
      message := "oracle failed: " ++ reason
      code := "grulia::oracle::failed"
      help := "The decision procedure could not answer the query. Nothing was cached." }
  | .malformed reason => {
      message := "oracle returned a malformed answer: " ++ reason
      code := "grulia::oracle::malformed"
      help := "A satisfiable answer must carry a model and an unsatisfiable "
        ++ "answer must carry a core. Nothing was cached." }
  | .searchSpaceTooLarge assignments limit => {
      message := "search space of " ++ toString assignments
        ++ " assignments exceeds the budget of " ++ toString limit
      code := "grulia::oracle::search_space"
      help := "Tighten the variable domains or raise `oracle.max_assignments` "
        ++ "in the configuration." }
  | .expr fault => fault.diagnosis

inductive SessionFault where
  | invalidConfig (reason : String)
  | dataDir (path : String) (cause : StoreFault)
  | configRead (path : String)
  | configParse (path reason : String)
  | configWrite (path : String)
deriving DecidableEq

def SessionFault.diagnosis : SessionFault → Diagnosis
  | .invalidConfig reason => {
      message := "invalid configuration: " ++ reason
      code := "grulia::engine::invalid_config"
      help := "Check the EngineConfig fields. " ++ reason }
  | .dataDir path _ => {
      message := "data directory error: " ++ path
      code := "grulia::engine::data_dir"
      help := "The data directory could not be created or its database opened. "
        ++ "Ensure the path names a writable directory." }
  | .configRead path => {
      message := "failed to read config: " ++ path
      code := "grulia::engine::config_read"
      help := "Ensure the config file exists and is valid TOML." }
  | .configParse path reason => {
      message := "failed to parse config: " ++ path
      code := "grulia::engine::config_parse"
      help := "Check the TOML syntax in the config file. " ++ reason }
  | .configWrite path => {
      message := "failed to write config: " ++ path
      code := "grulia::engine::config_write"
      help := "Ensure the config directory is writable." }

inductive Fault where
  | expr (fault : ExprFault)
  | store (fault : StoreFault)
  | oracle (fault : OracleFault)
  | session (fault : SessionFault)
deriving DecidableEq

def Fault.diagnosis : Fault → Diagnosis
  | .expr fault => fault.diagnosis
  | .store fault => fault.diagnosis
  | .oracle fault => fault.diagnosis
  | .session fault => fault.diagnosis

end Reprise
