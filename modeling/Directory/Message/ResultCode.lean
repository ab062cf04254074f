/-!
# Result codes

A result code is any 32-bit number; the standard names some of them, and extensions may use the
rest. `ResultCode.name?` is the table of the standard names.
-/

namespace Directory

structure ResultCode where
  value : UInt32
  deriving DecidableEq, Repr

namespace ResultCode

def success : ResultCode := ⟨0⟩

def unwillingToPerform : ResultCode := ⟨53⟩

def isSuccess (c : ResultCode) : Bool := c == success

def standard : List (UInt32 × String) := [
  (0, "success"), (1, "operationsError"), (2, "protocolError"), (3, "timeLimitExceeded"),
  (4, "sizeLimitExceeded"), (5, "compareFalse"), (6, "compareTrue"),
  (7, "authMethodNotSupported"), (8, "strongerAuthRequired"), (10, "referral"),
  (11, "adminLimitExceeded"), (12, "unavailableCriticalExtension"),
  (13, "confidentialityRequired"), (14, "saslBindInProgress"), (16, "noSuchAttribute"),
  (17, "undefinedAttributeType"), (18, "inappropriateMatching"), (19, "constraintViolation"),
  (20, "attributeOrValueExists"), (21, "invalidAttributeSyntax"), (32, "noSuchObject"),
  (33, "aliasProblem"), (34, "invalidDNSyntax"), (36, "aliasDereferencingProblem"),
  (48, "inappropriateAuthentication"), (49, "invalidCredentials"),
  (50, "insufficientAccessRights"), (51, "busy"), (52, "unavailable"),
  (53, "unwillingToPerform"), (54, "loopDetect"), (64, "namingViolation"),
  (65, "objectClassViolation"), (66, "notAllowedOnNonLeaf"), (67, "notAllowedOnRDN"),
  (68, "entryAlreadyExists"), (69, "objectClassModsProhibited"), (71, "affectsMultipleDSAs"),
  (80, "other")]

def name? (c : ResultCode) : Option String := standard.lookup c.value

/-- A code for a reader: the name with the number, or the bare number. -/
def display (c : ResultCode) : String :=
  match c.name? with
  | some name => name ++ " (" ++ toString c.value ++ ")"
  | none => "resultCode " ++ toString c.value

end ResultCode

end Directory
