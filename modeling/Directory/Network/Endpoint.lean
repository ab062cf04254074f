import Directory.Network.Address

/-!
# Endpoints

An endpoint is an address and a port: `192.0.2.1:389`, or `[2001:db8::1]:389` for a long address,
where the number of a scope may follow the address: `[fe80::1%2]:389`. Scope zero is not written.
-/

namespace Directory.Network

inductive Endpoint where
  | short (address : ShortAddress) (port : UInt16)
  | long (address : LongAddress) (scope : UInt32) (port : UInt16)
  deriving DecidableEq, Repr

namespace Endpoint

def port? : Reader UInt16 := fun cs => do
  let (n, rest) ← decimal? 65535 (← behind? ':' cs)
  some (UInt16.ofNat n, rest)

/-- Reads the number of a scope, if there is one behind a percent sign. -/
def scope? (cs : List Char) : Option (UInt32 × List Char) := do
  let (n, rest) ← decimal? 4294967295 (← behind? '%' cs)
  some (UInt32.ofNat n, rest)

def short? : Reader Endpoint := fun cs => do
  let (address, cs) ← ShortAddress.read? cs
  let (port, cs) ← port? cs
  some (.short address port, cs)

def long? : Reader Endpoint := fun cs => do
  let (address, cs) ← LongAddress.read? (← behind? '[' cs)
  let (scope, cs) := (scope? cs).getD (0, cs)
  let (port, cs) ← port? (← behind? ']' cs)
  some (.long address scope port, cs)

def ofText? (s : String) : Option Endpoint :=
  match short? s.toList <|> long? s.toList with
  | some (e, []) => some e
  | _ => none

def text : Endpoint → String
  | short address port => address.text ++ ":" ++ toString port.toNat
  | long address scope port =>
      let zone := if scope = 0 then "" else "%" ++ toString scope.toNat
      "[" ++ address.text ++ zone ++ "]:" ++ toString port.toNat

end Endpoint

end Directory.Network
