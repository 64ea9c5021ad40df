import NftLedger.Bytes
import NftLedger.Json.Shape

namespace NftLedger

open NftLedger.Json (Record Shape)

structure SessionChoice where
  wanted : Bool
  code : Option Bytes
deriving DecidableEq, Repr

namespace SessionChoice

def entryPoint : SessionChoice := ⟨false, none⟩

def bundled : SessionChoice := ⟨true, none⟩

def provided (code : Bytes) : SessionChoice := ⟨true, some code⟩

def record : Record SessionChoice :=
  SessionChoice.mk <$> .withDefault "useSessionCode" Shape.bool false <*>
    .optional "sessionPayload" (Shape.list Shape.u8)

def ofJson : Shape SessionChoice := record.shape "CallConfig"

end SessionChoice

end NftLedger
