import ProtoVM.Value

/-!
# Invalidation tokens

Every object counts the changes made to it; its generation is that count in a word of 64 bits. A
token remembers the generation at the time it was issued and is valid as long as it has not moved.
-/

namespace ProtoVM

/-- The promise that an object has not changed since the token was issued. -/
structure Token where
  owner : ObjectId
  /-- The generation of the owner at the time of issue. -/
  issued : UInt64
deriving DecidableEq

/-- The one-line description of a token. -/
def Token.summary (t : Token) (valid : Bool) : String :=
  "Token \x7b issued: " ++ toString t.issued.toNat ++ ", valid: "
    ++ (if valid then "true" else "false") ++ " \x7d"

end ProtoVM
