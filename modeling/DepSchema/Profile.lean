/-
DepSchema.Profile — how much time a solver may take.

A profile is chosen by name, in an environment variable or by the caller. Names are read without
regard to the case of ASCII letters or to white space around them.
-/
import DepSchema.Text.Blank
import DepSchema.Query

namespace DepSchema

/-- A choice between a quick and a patient solver. -/
inductive Profile where
  | fast | ci | thorough
  deriving Repr, DecidableEq

namespace Profile

/-- The profile where none is named. -/
def default : Profile := fast

/-- The name of a profile. -/
def name : Profile → String
  | fast => "Fast"
  | ci => "Ci"
  | thorough => "Thorough"

/-- The time for one query, in milliseconds. -/
def timeout : Profile → Nat
  | fast => 50
  | ci => 250
  | thorough => 2000

/-- A profile by its name. The error names the text as it was understood. -/
def ofText (text : String) : Except OracleFailure Profile :=
  let key := String.ofList (Text.lowerAscii (Text.trim text.toList))
  if key = "fast" then .ok fast
  else if key = "ci" then .ok ci
  else if key = "thorough" then .ok thorough
  else .error ⟨"unknown SMT profile `" ++ key ++ "`", none⟩

/-- The variable of the environment that names the profile. -/
def environmentKey : String := "DBUF_SMT_PROFILE"

/-- The profile that the environment names, or the default one. -/
def ofEnvironment (value : Option String) : Profile :=
  match value.map ofText with
  | some (.ok p) => p
  | _ => default

/-- The value of the environment, if it is there and names no profile. -/
def unknownIn (value : Option String) : Option String :=
  value.filter fun text => (ofText text).toOption.isNone

end Profile

namespace OracleFailure

/-- What kind of failure it is. -/
def code : String := "dbuf::verify"

/-- The failure as the oracle reports it. -/
def text (e : OracleFailure) : String := "verification error: " ++ e.message

end OracleFailure

end DepSchema
