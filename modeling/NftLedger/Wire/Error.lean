import NftLedger.Text.Utf8
import NftLedger.Ty

namespace NftLedger

inductive Malformed
  | bool (byte : UInt8)
  | presence (byte : UInt8)
  | magnitude (length : Nat)
  | text (fault : Utf8.Fault)
  | keyTag (byte : UInt8)
  | zeroWidth (count : Nat)
  | typedAny
  | envelopeRest (left : Nat) (declared : Ty)
  | storedRest (left : Nat)
deriving DecidableEq, Repr

namespace Malformed

def kind : Malformed → String
  | bool _ => "Bool"
  | presence _ => "Option"
  | magnitude _ => "U512"
  | text _ => "String"
  | keyTag _ => "Key"
  | zeroWidth _ => "collection"
  | typedAny => "Any"
  | envelopeRest _ _ => "envelope"
  | storedRest _ => "stored value"

def reason : Malformed → String
  | bool byte => "byte " ++ toString byte.toNat
  | presence byte => "presence byte " ++ toString byte.toNat
  | magnitude length => "magnitude of " ++ toString length ++ " bytes"
  | text fault => fault.message
  | keyTag byte => "unknown key tag " ++ toString byte.toNat
  | zeroWidth count => toString count ++ " zero-width elements exceed the limit"
  | typedAny => "self-describing value declares type Any"
  | envelopeRest left declared => toString left ++ " trailing bytes after " ++ declared.text
  | storedRest left => toString left ++ " trailing bytes"

end Malformed

def nestingLimit : Nat := 64

inductive DecodeError
  | endOfInput (needed remaining : Nat)
  | unknownTag (tag : UInt8)
  | typeMismatch (expected found : Ty)
  | malformed (what : Malformed)
  | tooDeep
deriving DecidableEq, Repr

def DecodeError.message : DecodeError → String
  | endOfInput needed remaining =>
    "unexpected end of input: needed " ++ toString needed ++ " bytes, " ++
      toString remaining ++ " remaining"
  | unknownTag tag => "unknown type tag " ++ toString tag.toNat
  | typeMismatch expected found =>
    "type mismatch: expected " ++ expected.text ++ ", found " ++ found.text
  | malformed what => "invalid " ++ what.kind ++ " value: " ++ what.reason
  | tooDeep => "type nesting exceeds " ++ toString nestingLimit ++ " levels"

end NftLedger
